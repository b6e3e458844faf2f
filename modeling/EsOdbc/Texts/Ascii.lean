import EsOdbc.Texts.Integers

/-!
# ASCII texts

`ascii_w2c` and `ascii_c2w` (`util.c`).  An `SQLCHAR` is unsigned: none is below zero.
-/

namespace EsOdbc

/-! ## The source -/

section Copy

variable {α β : Type} [Zero α] [DecidableEq α] [Zero β]

/-- The loop of the two, at position `out.2`, with so many units to go. -/
def asciiCopyLoop (refuses : α → Bool) (cast : α → β) (src : List α) :
    ℕ → List β × ℕ → Exec (ℤ × List β)
  | 0, out => (put out [0]).bind fun dst ↦ (intSum (intOf out.2 + 1)).bind fun ret ↦ .done (ret, dst.1)
  | left + 1, out =>
    (Exec.ofOption src[out.2]?).bind fun c ↦
      if refuses c then (intSum (intOf out.2 + 1)).bind fun n ↦ .done (-n, out.1)
      else (put out [cast c]).bind fun next ↦
        if c = 0 then (intSum (intOf out.2 + 1)).bind fun ret ↦ .done (ret, next.1)
        else asciiCopyLoop refuses cast src left next

/-- The body of the two. -/
def asciiCopy (refuses : α → Bool) (cast : α → β) (src : List α) (chars : ℕ) (dst : List β) :
    Exec (ℤ × List β) :=
  if chars < 1 then .done (-1, dst) else asciiCopyLoop refuses cast src chars (dst, 0)

end Copy

/-- `ascii_w2c`: a unit above `SCHAR_MAX` is refused. -/
def asciiW2cInto : WStr → ℕ → List UInt8 → Exec (ℤ × List UInt8) :=
  asciiCopy (fun c ↦ decide (127 < c)) UInt16.toUInt8

/-- `ascii_c2w`: an `SQLCHAR` below zero is refused. -/
def asciiC2wInto : List UInt8 → ℕ → WStr → Exec (ℤ × WStr) :=
  asciiCopy (fun c ↦ decide ((c.toNat : ℤ) < 0)) UInt8.toUInt16

/-! ## The loop -/

section Copy

variable {α β : Type} [Zero α] [DecidableEq α] [Zero β] {refuses : α → Bool} {cast : α → β}

/-- The loop over units that are copied. -/
theorem asciiCopyLoop_run (pre u rest : List α) (left : ℕ) {dst : List β}
    (hu : ∀ c ∈ u, c ≠ 0 ∧ refuses c = false) (hroom : pre.length + u.length ≤ dst.length) :
    ∃ buf, asciiCopyLoop refuses cast (pre ++ (u ++ rest)) (u.length + left) (dst, pre.length) =
        asciiCopyLoop refuses cast (pre ++ (u ++ rest)) left (buf, (pre ++ u).length) ∧
      buf.length = dst.length ∧
      buf.take (pre ++ u).length = dst.take pre.length ++ u.map cast := by
  induction u generalizing pre dst with
  | nil =>
    refine ⟨dst, ?_, rfl, ?_⟩
    · rw [List.append_nil, List.length_nil, Nat.zero_add]
    · rw [List.append_nil, List.map_nil, List.append_nil]
  | cons c u ih =>
    obtain ⟨⟨hne, hkeep⟩, hu⟩ := List.forall_mem_cons.mp hu
    have hread : (pre ++ (c :: u ++ rest))[pre.length]? = some c := by simp
    have hnext : pre ++ (c :: u ++ rest) = (pre ++ [c]) ++ (u ++ rest) := by simp
    have hthrough : pre ++ c :: u = (pre ++ [c]) ++ u := by simp
    have hpos : (pre ++ [c]).length = pre.length + 1 := List.length_append
    have hleft : (c :: u).length + left = (u.length + left) + 1 := by
      rw [List.length_cons]
      omega
    rw [List.length_cons, ← Nat.add_assoc, Nat.add_right_comm] at hroom
    obtain ⟨buf, hput, hsize, htake⟩ := @put_done β (dst, pre.length) [cast c]
      ((Nat.le_add_right _ _).trans hroom)
    dsimp only at hsize htake
    obtain ⟨buf', hrun, hsize', htake'⟩ := @ih (pre ++ [c]) buf hu (by
      rw [hpos, hsize]
      omega)
    refine ⟨buf', ?_, hsize'.trans hsize, ?_⟩
    · rw [hleft, asciiCopyLoop, hread, Exec.ofOption_some, Exec.bind_done, if_neg (by simp [hkeep]),
        hput, Exec.bind_done, if_neg hne]
      rw [← hthrough, ← hnext, hpos] at hrun
      exact hrun
    · rw [hthrough, htake', hpos]
      rw [List.length_singleton] at htake
      rw [htake, List.append_assoc, List.map_cons]
      rfl

/-- The loop is left behind the last unit, or at a zero. -/
theorem asciiCopy_writes (hzero : refuses 0 = false) (hcast : cast 0 = 0) {u rest : List α} {chars : ℕ}
    {dst : List β} (hu : ∀ c ∈ u, c ≠ 0 ∧ refuses c = false) (hpos : 0 < chars)
    (hend : u.length = chars ∨ (u.length < chars ∧ rest.head? = some 0))
    (hroom : u.length + 1 ≤ dst.length) :
    ∃ out, asciiCopy refuses cast (u ++ rest) chars dst =
        (intSum (intOf u.length + 1)).bind (fun ret ↦ .done (ret, out)) ∧
      out.length = dst.length ∧ out.take (u.length + 1) = u.map cast ++ [0] := by
  obtain ⟨left, rfl⟩ : ∃ left, chars = u.length + left := Nat.exists_eq_add_of_le (by omega)
  obtain ⟨buf, hrun, hsize, htake⟩ :=
    @asciiCopyLoop_run α β _ _ _ refuses cast [] u rest left dst hu (by
      rw [List.length_nil]
      omega)
  rw [List.nil_append, List.nil_append, List.length_nil] at hrun
  rw [List.nil_append, List.length_nil, List.take_zero, List.nil_append] at htake
  obtain ⟨out, hput, hout, htake'⟩ := @put_done β (buf, u.length) [0] (by
    rw [List.length_singleton]
    exact hsize ▸ hroom)
  rw [List.length_singleton, htake] at htake'
  refine ⟨out, ?_, hout.trans hsize, htake'⟩
  rw [asciiCopy, if_neg (by omega), hrun]
  cases left with
  | zero => rw [asciiCopyLoop, hput, Exec.bind_done]
  | succ left =>
    obtain ⟨rest, rfl⟩ := List.head?_eq_some_iff.mp (hend.resolve_left (by omega)).2
    have hread : (u ++ 0 :: rest)[u.length]? = some 0 := by simp
    rw [asciiCopyLoop, hread, Exec.ofOption_some, Exec.bind_done, if_neg (by simp [hzero]), hcast, hput,
      Exec.bind_done, if_pos rfl]

/-- A destination with room for that and no more. -/
theorem asciiCopy_ends (hzero : refuses 0 = false) (hcast : cast 0 = 0) {u rest : List α} {chars : ℕ}
    {dst : List β} (hu : ∀ c ∈ u, c ≠ 0 ∧ refuses c = false) (hpos : 0 < chars)
    (hend : u.length = chars ∨ (u.length < chars ∧ rest.head? = some 0))
    (hroom : dst.length = u.length + 1) :
    asciiCopy refuses cast (u ++ rest) chars dst =
      (intSum (intOf u.length + 1)).bind fun ret ↦ .done (ret, u.map cast ++ [0]) := by
  obtain ⟨out, hrun, hlen, htake⟩ := asciiCopy_writes hzero hcast hu hpos hend hroom.ge
  rw [hrun, ← htake, List.take_of_length_le (hlen.trans hroom).le]

/-- Or at a unit that is refused. -/
theorem asciiCopy_refused {u rest : List α} {c : α} {chars : ℕ} {dst : List β}
    (hu : ∀ c ∈ u, c ≠ 0 ∧ refuses c = false) (hlt : u.length < chars) (hc : refuses c = true)
    (hroom : u.length ≤ dst.length) :
    ∃ out, asciiCopy refuses cast (u ++ c :: rest) chars dst =
      (intSum (intOf u.length + 1)).bind fun n ↦ .done (-n, out) := by
  obtain ⟨left, rfl⟩ : ∃ left, chars = u.length + (left + 1) := Nat.exists_eq_add_of_lt hlt
  obtain ⟨buf, hrun, -, -⟩ :=
    @asciiCopyLoop_run α β _ _ _ refuses cast [] u (c :: rest) (left + 1) dst hu (by
      rw [List.length_nil]
      omega)
  rw [List.nil_append, List.nil_append, List.length_nil] at hrun
  have hread : (u ++ c :: rest)[u.length]? = some c := by simp
  refine ⟨buf, ?_⟩
  rw [asciiCopy, if_neg (by omega), hrun, asciiCopyLoop, hread, Exec.ofOption_some, Exec.bind_done,
    if_pos hc]

end Copy

/-! ## The strings -/

/-- A string with the count it is given by, or with a zero in front of that. -/
structure AsciiText (α : Type) [Zero α] where
  src : List α
  chars : ℕ
  pos : 0 < chars
  ends : chars ≤ src.length ∨ 0 ∈ src

namespace AsciiText

section Exact

variable {α β : Type} [Zero α] [DecidableEq α] [Zero β]

/-- The characters up to the count or the first zero. -/
def text (t : AsciiText α) : List α := (t.src.take t.chars).takeWhile fun c ↦ decide (c ≠ 0)

/-- A destination that has one unit more than those characters is written inside.  The copy succeeds
exactly on ASCII characters; then it returns their count and one, ends with a zero, and the way back
restores them. -/
def Exact (ascii : α → Prop) (cast : α → β) (copy : List α → ℕ → List β → Exec (ℤ × List β))
    (back : List β → ℕ → List α → Exec (ℤ × List α)) (t : AsciiText α) : Prop :=
  ∀ dst, dst.length = t.text.length + 1 → ∃ ret out, copy t.src t.chars dst = .done (ret, out) ∧
    (0 < ret ↔ ∀ c ∈ t.text, ascii c) ∧
    (0 < ret → ret = t.text.length + 1 ∧ out = t.text.map cast ++ [0] ∧
      ∀ room, room.length = t.text.length + 1 → back out t.chars room = .done (ret, t.text ++ [0]))

theorem text_ne_zero (t : AsciiText α) {c : α} (hc : c ∈ t.text) : c ≠ 0 := by
  have h := List.mem_takeWhile_imp hc
  exact of_decide_eq_true h

/-- The string is its characters with what follows them. -/
theorem exists_rest (t : AsciiText α) : ∃ rest, t.src = t.text ++ rest ∧
    (t.text.length = t.chars ∨ (t.text.length < t.chars ∧ rest.head? = some 0)) := by
  have hsplit : t.src = t.text ++ ((t.src.take t.chars).dropWhile (fun c ↦ decide (c ≠ 0)) ++
      t.src.drop t.chars) := by
    rw [← List.append_assoc, text, List.takeWhile_append_dropWhile, List.take_append_drop]
  have hlen := congrArg List.length (List.takeWhile_append_dropWhile
    (p := fun c ↦ decide (c ≠ 0)) (l := t.src.take t.chars))
  rw [List.length_append, List.length_take] at hlen
  refine ⟨_, hsplit, ?_⟩
  cases hdrop : (t.src.take t.chars).dropWhile (fun c ↦ decide (c ≠ 0)) with
  | nil =>
    refine .inl ?_
    rw [hdrop, List.length_nil] at hlen
    have hall : t.text = t.src.take t.chars := by
      have h := List.takeWhile_append_dropWhile (p := fun c ↦ decide (c ≠ 0)) (l := t.src.take t.chars)
      rwa [hdrop, List.append_nil] at h
    obtain hle | hzero := t.ends
    · rw [hall, List.length_take_of_le hle]
    · by_contra hne
      have hle : t.src.length ≤ t.chars := by
        by_contra hlt
        exact hne (by rw [hall, List.length_take_of_le (not_le.mp hlt).le])
      rw [List.take_of_length_le hle] at hall
      exact t.text_ne_zero (hall ▸ hzero) rfl
  | cons c rest =>
    have hc : c = 0 := by
      have hne : (t.src.take t.chars).dropWhile (fun c ↦ decide (c ≠ 0)) ≠ [] := by
        rw [hdrop]
        exact List.cons_ne_nil _ _
      have hhead := List.head_dropWhile_not (fun c ↦ decide (c ≠ 0)) hne
      simp only [hdrop, List.head_cons, decide_eq_false_iff_not, not_not] at hhead
      exact hhead
    rw [hdrop, List.length_cons] at hlen
    have hmin : min t.chars t.src.length ≤ t.chars := min_le_left _ _
    have hpos : t.text.length = ((t.src.take t.chars).takeWhile fun c ↦ decide (c ≠ 0)).length := rfl
    exact .inr ⟨by omega, by rw [hc]; rfl⟩

variable {ascii : α → Prop} {cast : α → β} {copy : List α → ℕ → List β → Exec (ℤ × List β)}
  {back : List β → ℕ → List α → Exec (ℤ × List α)} {t : AsciiText α}

theorem intSum_intOf {n : ℕ} (h : n + 1 < 2 ^ 31) : intSum (intOf n + 1) = .done ((n : ℤ) + 1) := by
  rw [intOf_eq_iff.mpr (Nat.lt_of_succ_lt h), intSum, if_pos (by omega)]

/-- ASCII characters that are copied up to their end. -/
theorem exact_of_ascii (hascii : ∀ c ∈ t.text, ascii c)
    (hcopy : ∀ dst, dst.length = t.text.length + 1 → copy t.src t.chars dst =
      (intSum (intOf t.text.length + 1)).bind fun ret ↦ .done (ret, t.text.map cast ++ [0]))
    (hback : ∀ room, room.length = t.text.length + 1 → back (t.text.map cast ++ [0]) t.chars room =
      (intSum (intOf t.text.length + 1)).bind fun ret ↦ .done (ret, t.text ++ [0])) :
    t.Exact ascii cast copy back ↔ t.text.length + 1 < 2 ^ 31 := by
  constructor
  · intro h
    obtain ⟨ret, out, hrun, hpos, hret⟩ := h (List.replicate _ 0) List.length_replicate
    obtain ⟨hret, -⟩ := hret (hpos.mpr hascii)
    rw [hcopy _ List.length_replicate, intSum] at hrun
    split at hrun
    · next hsum =>
      have hfst := congrArg Prod.fst (Exec.done.inj hrun)
      dsimp only at hfst
      omega
    · cases hrun
  · intro h dst hdst
    have hret : (0 : ℤ) < (t.text.length : ℤ) + 1 := by omega
    refine ⟨(t.text.length : ℤ) + 1, _, ?_, iff_of_true hret hascii, fun _ ↦ ⟨rfl, rfl, ?_⟩⟩
    · rw [hcopy dst hdst, intSum_intOf h, Exec.bind_done]
    · intro room hroom
      rw [hback room hroom, intSum_intOf h, Exec.bind_done]

/-- Others are to be refused. -/
theorem exact_of_not_ascii (hascii : ¬∀ c ∈ t.text, ascii c) {s : ℤ} {f : ℤ → ℤ}
    (hcopy : ∀ dst, dst.length = t.text.length + 1 → ∃ out, copy t.src t.chars dst =
      (intSum s).bind fun n ↦ .done (f n, out)) :
    t.Exact ascii cast copy back ↔ (-2 ^ 31 ≤ s ∧ s < 2 ^ 31) ∧ f s ≤ 0 := by
  constructor
  · intro h
    obtain ⟨ret, out, hrun, hpos, -⟩ := h (List.replicate _ 0) List.length_replicate
    obtain ⟨out', hrun'⟩ := hcopy _ (List.length_replicate (a := (0 : β)))
    rw [hrun', intSum] at hrun
    split at hrun
    · next hsum =>
      have hfst : f s = ret := congrArg Prod.fst (Exec.done.inj hrun)
      exact ⟨hsum, not_lt.mp fun hlt ↦ hascii (hpos.mp (hfst ▸ hlt))⟩
    · cases hrun
  · rintro ⟨hsum, hle⟩ dst hdst
    obtain ⟨out, hrun⟩ := hcopy dst hdst
    refine ⟨f s, out, ?_, iff_of_false (not_lt.mpr hle) hascii, fun hpos ↦ absurd hpos (not_lt.mpr hle)⟩
    rw [hrun, intSum, if_pos hsum, Exec.bind_done]

end Exact

/-- What `ascii_w2c` is to do with a wide string. -/
def Narrows (t : AsciiText UInt16) : Prop :=
  t.Exact (· < 128) UInt16.toUInt8 asciiW2cInto asciiC2wInto

/-- What `ascii_c2w` is to do with a narrow one. -/
def Widens (t : AsciiText UInt8) : Prop :=
  t.Exact (· < 128) UInt8.toUInt16 asciiC2wInto asciiW2cInto

/-- The count in front of the first character that is not ASCII. -/
def asciiCount (t : AsciiText UInt16) : ℕ := (t.text.takeWhile (· < 128)).length

theorem refuses_wide {c : UInt16} : decide (127 < c) = false ↔ c < 128 := by
  rw [decide_eq_false_iff_not, UInt16.lt_iff_toNat_lt, UInt16.lt_iff_toNat_lt]
  have h127 : (127 : UInt16).toNat = 127 := rfl
  have h128 : (128 : UInt16).toNat = 128 := rfl
  omega

theorem refuses_narrow (c : UInt8) : decide ((c.toNat : ℤ) < 0) = false := by
  rw [decide_eq_false_iff_not, not_lt]
  exact Int.natCast_nonneg _

theorem toUInt16_toUInt8_of_ascii {c : UInt16} (hc : c < 128) : c.toUInt8.toUInt16 = c := by
  rw [UInt16.lt_iff_toNat_lt] at hc
  have h128 : (128 : UInt16).toNat = 128 := rfl
  rw [← UInt16.toNat_inj, UInt8.toNat_toUInt16, UInt16.toNat_toUInt8]
  omega

theorem toUInt16_ascii {c : UInt8} (hc : c < 128) : c.toUInt16 < 128 := by
  rw [UInt8.lt_iff_toNat_lt] at hc
  rw [UInt16.lt_iff_toNat_lt, UInt8.toNat_toUInt16]
  exact hc

/-- ASCII characters of a wide string are copied. -/
theorem narrows_of_ascii {u rest : WStr} {chars : ℕ} {dst : List UInt8}
    (hu : ∀ c ∈ u, c ≠ 0 ∧ c < 128) (hpos : 0 < chars)
    (hend : u.length = chars ∨ (u.length < chars ∧ rest.head? = some 0))
    (hroom : dst.length = u.length + 1) :
    asciiW2cInto (u ++ rest) chars dst =
      (intSum (intOf u.length + 1)).bind fun ret ↦ .done (ret, u.map UInt16.toUInt8 ++ [0]) :=
  asciiCopy_ends rfl rfl (fun c hc ↦ ⟨(hu c hc).1, refuses_wide.mpr (hu c hc).2⟩) hpos hend hroom

/-- All characters of a narrow one are. -/
theorem widens_ends {u rest : List UInt8} {chars : ℕ} {dst : WStr} (hu : ∀ c ∈ u, c ≠ 0)
    (hpos : 0 < chars) (hend : u.length = chars ∨ (u.length < chars ∧ rest.head? = some 0))
    (hroom : dst.length = u.length + 1) :
    asciiC2wInto (u ++ rest) chars dst =
      (intSum (intOf u.length + 1)).bind fun ret ↦ .done (ret, u.map UInt8.toUInt16 ++ [0]) :=
  asciiCopy_ends rfl rfl (fun c hc ↦ ⟨hu c hc, refuses_narrow c⟩) hpos hend hroom

theorem narrows_iff (t : AsciiText UInt16) : t.Narrows ↔
    if ∀ c ∈ t.text, c < 128 then t.text.length + 1 < 2 ^ 31
    else -1 ≤ intOf t.asciiCount ∧ intOf t.asciiCount + 1 < 2 ^ 31 := by
  obtain ⟨rest, hsrc, hend⟩ := t.exists_rest
  by_cases hascii : ∀ c ∈ t.text, c < 128
  · rw [if_pos hascii]
    refine exact_of_ascii hascii (fun dst hdst ↦ ?_) fun room hroom ↦ ?_
    · rw [hsrc]
      exact narrows_of_ascii (fun c hc ↦ ⟨t.text_ne_zero hc, hascii c hc⟩) t.pos hend hdst
    · have hmap : (t.text.map UInt16.toUInt8).map UInt8.toUInt16 = t.text := by
        rw [List.map_map]
        exact (List.map_congr_left fun c hc ↦ toUInt16_toUInt8_of_ascii (hascii c hc)).trans
          (List.map_id _)
      have hne (b : UInt8) (hb : b ∈ t.text.map UInt16.toUInt8) : b ≠ 0 := by
        obtain ⟨c, hc, rfl⟩ := List.mem_map.mp hb
        intro hzero
        have hback := toUInt16_toUInt8_of_ascii (hascii c hc)
        rw [hzero] at hback
        exact t.text_ne_zero hc hback.symm
      have hwiden := @widens_ends (t.text.map UInt16.toUInt8) [0] t.chars room hne t.pos (by
        rw [List.length_map]
        exact hend.imp_right fun h ↦ ⟨h.1, rfl⟩) (by rw [List.length_map]; exact hroom)
      rwa [hmap, List.length_map] at hwiden
  · rw [if_neg hascii]
    have hsplit := List.takeWhile_append_dropWhile (p := fun c ↦ decide (c < 128)) (l := t.text)
    have hlow (c : UInt16) (hc : c ∈ t.text.takeWhile fun c ↦ decide (c < 128)) : c < 128 := by
      have h := List.mem_takeWhile_imp hc
      exact of_decide_eq_true h
    cases hdrop : t.text.dropWhile fun c ↦ decide (c < 128) with
    | nil =>
      rw [hdrop, List.append_nil] at hsplit
      exact absurd (fun c hc ↦ hlow c (hsplit.symm ▸ hc)) hascii
    | cons c after =>
      have hhigh : decide (127 < c) = true := by
        have hne : t.text.dropWhile (fun c ↦ decide (c < 128)) ≠ [] := by
          rw [hdrop]
          exact List.cons_ne_nil _ _
        have hhead := List.head_dropWhile_not (fun c ↦ decide (c < 128)) hne
        simp only [hdrop, List.head_cons, decide_eq_false_iff_not] at hhead
        rw [← Bool.not_eq_false]
        exact fun h ↦ hhead (refuses_wide.mp h)
      rw [hdrop] at hsplit
      have hlen := congrArg List.length hsplit
      rw [List.length_append, List.length_cons] at hlen
      have hcount : t.asciiCount = (t.text.takeWhile fun c ↦ decide (c < 128)).length := rfl
      rw [Narrows, exact_of_not_ascii (s := intOf t.asciiCount + 1) (f := fun n ↦ -n) hascii]
      · omega
      · intro dst hdst
        rw [hsrc, ← hsplit, List.append_assoc]
        refine asciiCopy_refused (fun c hc ↦ ⟨?_, refuses_wide.mpr (hlow c hc)⟩) ?_ hhigh ?_
        · exact t.text_ne_zero (hsplit ▸ List.mem_append_left _ hc)
        · omega
        · omega

theorem widens_iff (t : AsciiText UInt8) : t.Widens ↔
    if ∀ c ∈ t.text, c < 128 then t.text.length + 1 < 2 ^ 31 else intOf t.text.length + 1 ≤ 0 := by
  obtain ⟨rest, hsrc, hend⟩ := t.exists_rest
  have hcopy (dst : WStr) (hdst : dst.length = t.text.length + 1) : asciiC2wInto t.src t.chars dst =
      (intSum (intOf t.text.length + 1)).bind fun ret ↦
        .done (ret, t.text.map UInt8.toUInt16 ++ [0]) := by
    rw [hsrc]
    exact widens_ends (fun c hc ↦ t.text_ne_zero hc) t.pos hend hdst
  by_cases hascii : ∀ c ∈ t.text, c < 128
  · rw [if_pos hascii]
    refine exact_of_ascii hascii hcopy fun room hroom ↦ ?_
    have hmap : (t.text.map UInt8.toUInt16).map UInt16.toUInt8 = t.text := by
      rw [List.map_map]
      exact (List.map_congr_left fun c _ ↦ UInt8.toUInt8_toUInt16 c).trans (List.map_id _)
    have hu (b : UInt16) (hb : b ∈ t.text.map UInt8.toUInt16) : b ≠ 0 ∧ b < 128 := by
      obtain ⟨c, hc, rfl⟩ := List.mem_map.mp hb
      refine ⟨fun hzero ↦ t.text_ne_zero hc ?_, toUInt16_ascii (hascii c hc)⟩
      rw [← UInt8.toUInt8_toUInt16 c, hzero]
      rfl
    have hnarrow := @narrows_of_ascii (t.text.map UInt8.toUInt16) [0] t.chars room hu t.pos (by
      rw [List.length_map]
      exact hend.imp_right fun h ↦ ⟨h.1, rfl⟩) (by rw [List.length_map]; exact hroom)
    rwa [hmap, List.length_map] at hnarrow
  · rw [if_neg hascii]
    have hlow : -2 ^ 31 ≤ intOf t.text.length :=
      Int.le_bmod (x := (t.text.length : ℤ)) (m := 2 ^ 32) (by norm_num)
    rw [Widens, exact_of_not_ascii (s := intOf t.text.length + 1) (f := fun n ↦ n) hascii fun dst hdst ↦
      ⟨_, hcopy dst hdst⟩]
    omega

/-- Both conversions are as described on texts that an `int` can count, `ascii_c2w` on ASCII texts
only. -/
theorem ascii_exact_iff (t : AsciiText UInt16) (u : AsciiText UInt8) :
    (t.Narrows ↔ if ∀ c ∈ t.text, c < 128 then t.text.length + 1 < 2 ^ 31
      else -1 ≤ intOf t.asciiCount ∧ intOf t.asciiCount + 1 < 2 ^ 31) ∧
    (u.Widens ↔ if ∀ c ∈ u.text, c < 128 then u.text.length + 1 < 2 ^ 31
      else intOf u.text.length + 1 ≤ 0) :=
  ⟨t.narrows_iff, u.widens_iff⟩

/-- A byte of Latin-1. -/
theorem not_widens_latin : ¬(⟨[0xE9], 1, by decide, .inl (by decide)⟩ : AsciiText UInt8).Widens := by
  intro h
  obtain ⟨ret, out, hrun, hpos, -⟩ := h [0, 0] rfl
  have hdone : asciiC2wInto [0xE9] 1 [0, 0] = .done (2, [0xE9, 0]) := by decide
  have hret : 2 = ret := congrArg Prod.fst (Exec.done.inj (hdone.symm.trans hrun))
  have hascii := hpos.mp (by rw [← hret]; decide) 0xE9 (by decide)
  exact absurd hascii (by decide)

end AsciiText

end EsOdbc
