import EsOdbc.Interval.Exact

/-!
# The texts that are read as intervals

Whatever the text: where the loop ends with a result, it has read a `P`, some numbers with a
unit of a date, and perhaps a `T` and some numbers with a unit of a time.  The text is told
apart once, turn by turn; that the numbers are taken over as they should be is what is known
of each step.
-/

namespace EsOdbc

open Decimal (ofDigits)

/-! ## Letters -/

theorem getLsbD_lowerBit {i : ℕ} (hlt : i < 16) (hi : i ≠ 5) :
    (0x20 : BitVec 16).getLsbD i = false := by
  interval_cases i <;> first | rfl | exact absurd rfl hi

/-- What a unit is that has become `k` with the bit of lower case set. -/
theorem eq_letter {c k : UInt16} (h : c ||| 0x20 = k) : ∃ lower, c = letter k lower := by
  subst h
  by_cases hb : c.toBitVec &&& 0x20 = 0
  · refine ⟨false, ?_⟩
    rw [letter, if_neg Bool.false_ne_true, ← UInt16.toBitVec_inj]
    show c.toBitVec = (c.toBitVec ||| 0x20) - 0x20
    rw [← BitVec.add_eq_or_of_and_eq_zero _ _ hb, BitVec.add_sub_cancel]
  · refine ⟨true, ?_⟩
    rw [letter, if_pos rfl, ← UInt16.toBitVec_inj]
    show c.toBitVec = c.toBitVec ||| 0x20
    have hbit : c.toBitVec.getLsbD 5 = true := by
      by_contra hn
      refine hb (BitVec.eq_of_getLsbD_eq fun i hlt ↦ ?_)
      rw [BitVec.getLsbD_and]
      show _ = (0#16).getLsbD i
      rw [BitVec.getLsbD_zero]
      by_cases hi : i = 5
      · rw [hi, Bool.eq_false_of_not_eq_true hn, Bool.false_and]
      · rw [getLsbD_lowerBit hlt hi, Bool.and_false]
    refine BitVec.eq_of_getLsbD_eq fun i hlt ↦ ?_
    rw [BitVec.getLsbD_or]
    by_cases hi : i = 5
    · rw [hi, hbit, Bool.true_or]
    · rw [getLsbD_lowerBit hlt hi, Bool.or_false]

/-- The letters of the classes. -/
theorem eq_letter_of_ivlUnit {c : UInt16} :
    (ivlUnit c = .p → ∃ lower, c = letter 0x70 lower) ∧
      (ivlUnit c = .t → ∃ lower, c = letter 0x74 lower) ∧
      (ivlUnit c = .y → ∃ lower, c = letter 0x79 lower) ∧
      (ivlUnit c = .m → ∃ lower, c = letter 0x6D lower) ∧
      (ivlUnit c = .d → ∃ lower, c = letter 0x64 lower) ∧
      (ivlUnit c = .h → ∃ lower, c = letter 0x68 lower) ∧
      (ivlUnit c = .s → ∃ lower, c = letter 0x73 lower) := by
  simp only [ivlUnit]
  split_ifs with hp ht hn hy hm hd hh hs <;>
    refine ⟨fun h ↦ ?_, fun h ↦ ?_, fun h ↦ ?_, fun h ↦ ?_, fun h ↦ ?_, fun h ↦ ?_, fun h ↦ ?_⟩ <;>
    first | (cases h; done) | (exact eq_letter (by assumption))

/-! ## One number -/

/-- No point stands before anything but a digit, and no sign before a `+`. -/
def Tidy (c d : UInt16) : Prop :=
  (c = 0x2E → digitOf d ≠ none) ∧ (signOf c ≠ none → d ≠ 0x2B)

instance (c d : UInt16) : Decidable (Tidy c d) := inferInstanceAs (Decidable (_ ∧ _))

theorem takeNumber_state {b : ℤ} {s s' : IvlScan} (h : takeNumber b s = some s') :
    s'.state = s.state := by
  rw [takeNumber] at h
  generalize (if b < 0 then (-b).bmod (2 ^ 64) else b) = uint, (if b < 0 then (-1 : ℤ) else 1) = inc
    at h
  split at h
  · cases h
  · split at h
    · cases h
    · rw [← Option.some.inj h]

/-- No sign at the start has a `+` behind it. -/
theorem head_tidy {w : WStr} (htidy : w.IsChain Tidy) :
    ∀ c ∈ w.head?, signOf c ≠ none → w.tail.head? ≠ some 0x2B := by
  intro c hc hsign
  match w with
  | [] => cases hc
  | [d] => exact nofun
  | d :: e :: w =>
    obtain rfl : d = c := Option.some.inj hc
    rintro ⟨⟩
    exact (List.isChain_cons_cons.mp htidy).1.2 hsign rfl

/-- A fraction has digits. -/
theorem parseFraction_eq_some {p : Int16} {t rest : WStr} {fraction stop : ℕ} {ret : SqlReturn}
    (htidy : (0x2E :: rest).IsChain Tidy)
    (h : parseFraction p (t ++ 0x2E :: rest) t.length = some (fraction, ret, stop)) :
    ∃ es rest', es ≠ [] ∧ rest = digitUnits es ++ rest' ∧ stop = t.length + (es.length + 1) := by
  rw [parseFraction, drop_after] at h
  split at h
  · cases h
  · next hlong =>
    obtain ⟨d, rest, rfl⟩ : ∃ d t, rest = d :: t := by
      refine List.exists_cons_of_ne_nil ?_
      rintro rfl
      refine hlong ?_
      rw [List.length_append]
      exact le_rfl
    have hdigit : digitOf d ≠ none := (List.isChain_cons_cons.mp htidy).1.1 rfl
    split at h
    · cases h
    · next ubint fdigits hread =>
      have hhead : (d :: rest).head? ≠ some 0x2B := by
        rintro ⟨⟩
        exact hdigit (by decide)
      obtain ⟨es, rest', hes, -, rfl, hrest', -⟩ := str2ubigint_eq_some hread hhead
      split at h
      · cases h
      · obtain ⟨-, hr⟩ := Prod.mk.inj (Option.some.inj h)
        obtain ⟨-, rfl⟩ := Prod.mk.inj hr
        refine ⟨es, rest', ?_, hes, rfl⟩
        rintro rfl
        rw [digitUnits_nil, List.nil_append] at hes
        rw [← hes] at hrest'
        exact hdigit (hrest' d rfl)

/-- What is read as a number is the text of one. -/
theorem parseIso8601Number_eq_some {p : Int16} {w : WStr} {s s' : IvlScan} {n : ℕ}
    (htidy : w.IsChain Tidy) (h : parseIso8601Number p w s = some (s', n)) (hn : n ≠ 0) :
    s'.state = s.state ∧ ∃ (a : Amount) (rest : WStr), w = a.text ++ rest ∧ n = a.text.length ∧
      ∀ f ∈ a.frac, f.1 = false ∧ f.2 ≠ [] := by
  rw [parseIso8601Number] at h
  split at h
  · cases h
  · next bint digits hbint =>
    obtain ⟨sign, ds, rest, rfl, rfl, -, -, hsigned, -, -⟩ :=
      str2bigint_eq_some hbint (head_tidy htidy)
    split at h
    · cases h
    · next next hnext =>
      rw [← List.append_assoc, List.getElem?_append_right le_rfl, Nat.sub_self] at hnext
      obtain ⟨rest, rfl⟩ : ∃ t, rest = next :: t := by
        cases rest with
        | nil => cases hnext
        | cons d t => exact ⟨t, by rw [Option.some.inj hnext]⟩
      split at h
      · next hpoint =>
        subst hpoint
        dsimp only at h
        generalize (if (signUnits sign ++ digitUnits ds).length = 0 then (0 : ℤ) else bint) = b at h
        split at h
        · cases h
        · next fraction ret stop hfrac =>
          obtain ⟨r, htake, hr⟩ := Option.map_eq_some_iff.mp h
          obtain ⟨rfl, rfl⟩ := Prod.mk.inj hr
          have htail : (0x2E :: rest).IsChain Tidy :=
            (List.isChain_append.mp (List.isChain_append.mp htidy).2.1).2.1
          rw [← List.append_assoc] at hfrac
          obtain ⟨es, rest', hne, rfl, rfl⟩ := parseFraction_eq_some htail hfrac
          refine ⟨(takeNumber_state htake).trans rfl,
            ⟨sign, ds, some (false, es), false, .inr ?_⟩, rest', ?_, ?_, ?_⟩
          · simpa using hne
          · simp [Amount.text, Amount.fracText, Amount.signText, signUnits]
          · simp [Amount.text, Amount.fracText, Amount.signText, signUnits, Nat.add_assoc]
          · intro f hf
            obtain rfl := Option.some.inj hf
            exact ⟨rfl, hne⟩
      · obtain ⟨r, htake, hr⟩ := Option.map_eq_some_iff.mp h
        obtain ⟨rfl, rfl⟩ := Prod.mk.inj hr
        refine ⟨(takeNumber_state htake).trans rfl, ⟨sign, ds, none, false, .inl ?_⟩,
          next :: rest, ?_, ?_, ?_⟩
        · rintro rfl
          cases sign with
          | none => exact hn rfl
          | some neg => exact hsigned rfl rfl
        · simp [Amount.text, Amount.fracText, Amount.signText, signUnits]
        · simp [Amount.text, Amount.fracText, Amount.signText, signUnits]
        · intro f hf
          cases hf

/-! ## One turn -/

theorem assignField_eq_some {prev : IvlState} {f : IvlField} {s s' : IvlScan}
    (h : assignField prev f s = some s') : s.state = .number ∧ s.saved = prev := by
  rw [assignField] at h
  split at h
  · cases h
  · next hstate => exact ⟨not_not.mp fun hn ↦ hstate (.inl hn), not_not.mp fun hn ↦ hstate (.inr hn)⟩

/-- Between a number and its unit only the letter of a unit is taken that stands where the
number does. -/
theorem ivlTurn_after {p : Int16} {text : WStr} {c : UInt16} {s : IvlScan}
    {r : IvlScan × ℕ} (hs : s.state = .number) (h : ivlTurn p text s (ivlUnit c) = some r) :
    ∃ (u : DurationUnit) (lower : Bool), c = u.letter lower ∧ u.home = s.saved := by
  obtain ⟨-, -, hy, hm, hd, hh, hsec⟩ := @eq_letter_of_ivlUnit c
  cases hc : ivlUnit c with
  | p => simp [hc, ivlTurn, hs] at h
  | t => simp [hc, ivlTurn, hs] at h
  | number => simp [hc, ivlTurn, hs] at h
  | other => simp [hc, ivlTurn] at h
  | y =>
    rw [hc, ivlTurn, Option.map_eq_some_iff] at h
    obtain ⟨_, h, -⟩ := h
    obtain ⟨lower, rfl⟩ := hy hc
    exact ⟨.year, lower, rfl, (assignField_eq_some h).2.symm⟩
  | d =>
    rw [hc, ivlTurn, Option.map_eq_some_iff] at h
    obtain ⟨_, h, -⟩ := h
    obtain ⟨lower, rfl⟩ := hd hc
    exact ⟨.day, lower, rfl, (assignField_eq_some h).2.symm⟩
  | h =>
    rw [hc, ivlTurn, Option.map_eq_some_iff] at h
    obtain ⟨_, h, -⟩ := h
    obtain ⟨lower, rfl⟩ := hh hc
    exact ⟨.hour, lower, rfl, (assignField_eq_some h).2.symm⟩
  | s =>
    rw [hc, ivlTurn, Option.map_eq_some_iff] at h
    obtain ⟨_, h, -⟩ := h
    obtain ⟨lower, rfl⟩ := hsec hc
    exact ⟨.second, lower, rfl, (assignField_eq_some h).2.symm⟩
  | m =>
    obtain ⟨lower, rfl⟩ := hm hc
    rw [hc, ivlTurn] at h
    split at h
    · rw [Option.map_eq_some_iff] at h
      obtain ⟨_, h, -⟩ := h
      exact ⟨.month, lower, rfl, (assignField_eq_some h).2.symm⟩
    · rw [Option.map_eq_some_iff] at h
      obtain ⟨_, h, -⟩ := h
      exact ⟨.minute, lower, rfl, (assignField_eq_some h).2.symm⟩

/-- A turn that is taken moves on over some text. -/
theorem ivlLoop_cons {p : Int16} {c : UInt16} {rest : WStr} {s s' : IvlScan}
    (h : ivlLoop p 0 (c :: rest) s = some s') :
    ∃ s₁ n, ivlTurn p (c :: rest) s (ivlUnit c) = some (s₁, n + 1) ∧
      ivlLoop p n rest s₁ = some s' := by
  rw [ivlLoop] at h
  split at h
  · next s₁ n hturn => exact ⟨s₁, n, hturn, h⟩
  · cases h

/-- Where the loop is not within a number. -/
def IvlScan.Between (s : IvlScan) : Prop := s.state = .period ∨ s.state = .time

theorem IvlScan.Between.not_number {s : IvlScan} (h : s.Between) : s.state ≠ .number := by
  rcases h with h | h <;> rw [h] <;> decide

/-- What the loop reads first: nothing, a `T`, or a number with a unit that stands there. -/
theorem ivlLoop_first {p : Int16} {w : WStr} {s s' : IvlScan} (htidy : w.IsChain Tidy)
    (hs : s.Between) (hs' : s'.Between) (h : ivlLoop p 0 w s = some s') :
    w = [] ∧ s' = s ∨
      (∃ lower rest, s.state = .period ∧ w = letter 0x74 lower :: rest ∧
        ivlLoop p 0 rest { s with state := .time } = some s') ∨
      ∃ x rest s₁, w = Duration.amountText x ++ rest ∧ x.1.home = s.state ∧
        (∀ f ∈ x.2.frac, f.1 = false ∧ f.2 ≠ []) ∧ stepAmount p s x = some s₁ ∧
          ivlLoop p 0 rest s₁ = some s' := by
  cases w with
  | nil =>
    rw [ivlLoop, Option.some.injEq] at h
    exact .inl ⟨rfl, h.symm⟩
  | cons c w =>
    refine .inr ?_
    obtain ⟨s₁, n, hturn, hrest⟩ := ivlLoop_cons h
    have hletter {prev : IvlState} {f : IvlField} {s₁ : IvlScan} :
        assignField prev f s ≠ some s₁ :=
      fun h ↦ hs.not_number (assignField_eq_some h).1
    cases hc : ivlUnit c with
    | p =>
      rw [hc, ivlTurn, if_pos (by rcases hs with hs | hs <;> rw [hs] <;> decide)] at hturn
      cases hturn
    | t =>
      obtain ⟨lower, rfl⟩ := eq_letter_of_ivlUnit.2.1 hc
      rw [hc, ivlTurn] at hturn
      split at hturn
      · cases hturn
      · next hstate =>
        obtain ⟨rfl, hn⟩ := Prod.mk.inj (Option.some.inj hturn)
        obtain rfl : 0 = n := Nat.succ.inj hn
        exact .inl ⟨lower, w, not_not.mp hstate, rfl, hrest⟩
    | other =>
      rw [hc, ivlTurn] at hturn
      cases hturn
    | number =>
      refine .inr ?_
      rw [hc, ivlTurn] at hturn
      split at hturn
      · cases hturn
      · obtain ⟨⟨r, m⟩, hnum, hr⟩ := Option.map_eq_some_iff.mp hturn
        obtain ⟨rfl, rfl⟩ := Prod.mk.inj hr
        obtain ⟨hstate, a, rest, hw, hm, hfrac⟩ :=
          parseIso8601Number_eq_some htidy hnum (Nat.succ_ne_zero n)
        obtain ⟨t, ht, rfl⟩ : ∃ t, a.text = c :: t ∧ w = t ++ rest := by
          cases ht : a.text with
          | nil => rw [ht] at hm; cases hm
          | cons d t =>
            rw [ht, List.cons_append, List.cons.injEq] at hw
            exact ⟨t, by rw [hw.1], hw.2⟩
        obtain rfl : n = t.length := by
          rw [ht, List.length_cons] at hm
          exact Nat.succ.inj hm
        rw [ivlLoop_skip] at hrest
        cases rest with
        | nil =>
          rw [ivlLoop, Option.some.injEq] at hrest
          exact absurd (hrest ▸ rfl) hs'.not_number
        | cons d rest =>
          obtain ⟨s₂, n, hturn', -⟩ := ivlLoop_cons hrest
          obtain ⟨u, lower, rfl, hhome⟩ := ivlTurn_after rfl hturn'
          have hhome : u.home = s.state := hhome.trans hstate
          refine ⟨(u, { a with lower }), rest, ?_⟩
          have htext : c :: (t ++ u.letter lower :: rest) =
              Duration.amountText (u, { a with lower }) ++ rest := by
            have hlower : ({ a with lower } : Amount).text = a.text := rfl
            simp only [Duration.amountText, hlower, ht, List.cons_append, List.append_assoc,
              List.nil_append]
          rw [htext, ivlLoop_amount p _ rest hhome.symm, Option.bind_eq_some_iff] at h
          obtain ⟨s₃, hstep, hloop⟩ := h
          exact ⟨s₃, htext, hhome, hfrac, hstep, hloop⟩
    | m =>
      rw [hc, ivlTurn] at hturn
      split at hturn
      · obtain ⟨_, hassign, -⟩ := Option.map_eq_some_iff.mp hturn
        exact absurd hassign hletter
      · obtain ⟨_, hassign, -⟩ := Option.map_eq_some_iff.mp hturn
        exact absurd hassign hletter
    | y | d | h | s =>
      rw [hc, ivlTurn] at hturn
      obtain ⟨_, hassign, -⟩ := Option.map_eq_some_iff.mp hturn
      exact absurd hassign hletter

/-! ## All turns -/

theorem stepAmount_eq_some {p : Int16} {s s' : IvlScan} {x : DurationUnit × Amount}
    (h : stepAmount p s x = some s') :
    x.2.Taken x.1 ∧ (∀ f ∈ x.1.field, f ∉ s.fields) ∧ putAmount p s x = s' := by
  obtain ⟨f, hf, h⟩ := Option.bind_eq_some_iff.mp h
  split at h
  · next hstep =>
    refine ⟨hstep.1, ?_, ?_⟩
    · intro g hg
      obtain rfl : f = g := Option.some.inj (hf.symm.trans hg)
      exact hstep.2.2
    · rw [putAmount, hf]
      exact Option.some.inj h
  · cases h

/-- Numbers that are all taken, one after the other. -/
theorem foldlM_stepAmount_eq_some {p : Int16} {xs : List (DurationUnit × Amount)}
    {s s' : IvlScan} (h : xs.foldlM (stepAmount p) s = some s') :
    (∀ x ∈ xs, x.2.Taken x.1) ∧ (fieldsOf xs).Nodup ∧ (∀ f ∈ fieldsOf xs, f ∉ s.fields) ∧
      xs.foldl (putAmount p) s = s' := by
  induction xs generalizing s with
  | nil => exact ⟨nofun, List.nodup_nil, nofun, Option.some.inj h⟩
  | cons x xs ih =>
    rw [List.foldlM_cons] at h
    obtain ⟨s₁, hstep, h⟩ := Option.bind_eq_some_iff.mp h
    obtain ⟨htaken, hfresh, rfl⟩ := stepAmount_eq_some hstep
    obtain ⟨hall, hnodup, hnew, hfold⟩ := ih h
    have hnew' : ∀ f ∈ fieldsOf xs, f ∉ x.1.field ∧ f ∉ s.fields := by
      intro f hf
      refine ⟨fun hx ↦ ?_, fun hx ↦ ?_⟩
      · exact hnew f hf (mem_putAmount_fields.mpr (.inl hx))
      · exact hnew f hf (mem_putAmount_fields.mpr (.inr hx))
    refine ⟨List.forall_mem_cons.mpr ⟨htaken, hall⟩, ?_, ?_, hfold⟩
    · rw [fieldsOf_cons, List.nodup_append']
      refine ⟨?_, hnodup, fun f hx hf ↦ (hnew' f hf).1 (Option.mem_toList.mp hx)⟩
      cases x.1.field with
      | none => exact List.nodup_nil
      | some f => exact List.nodup_singleton f
    · intro f hf
      rw [fieldsOf_cons, List.mem_append, Option.mem_toList] at hf
      rcases hf with hf | hf
      · exact hfresh f hf
      · exact (hnew' f hf).2

/-- The units of numbers whose fields differ differ. -/
theorem nodup_units {xs : List (DurationUnit × Amount)} (htaken : ∀ x ∈ xs, x.2.Taken x.1)
    (h : (fieldsOf xs).Nodup) : (xs.map Prod.fst).Nodup := by
  rw [List.Nodup, List.pairwise_map]
  rw [List.Nodup, fieldsOf, List.pairwise_filterMap] at h
  refine h.imp_of_mem fun {x y} hx _ hdiff heq ↦ ?_
  obtain ⟨f, hf⟩ := Amount.field_of_taken (htaken x hx)
  exact hdiff f hf f (heq ▸ hf) rfl

/-- Numbers with a unit that stands at `st`, without a comma and without an empty fraction. -/
def Stand (st : IvlState) (xs : List (DurationUnit × Amount)) : Prop :=
  ∀ x ∈ xs, x.1.home = st ∧ ∀ f ∈ x.2.frac, f.1 = false ∧ f.2 ≠ []

/-- The loop reads the numbers that stand where it is, up to the end or to a `T`. -/
theorem ivlLoop_eq_some {p : Int16} {w : WStr} {s s' : IvlScan} (htidy : w.IsChain Tidy)
    (hs : s.Between) (hs' : s'.Between) (h : ivlLoop p 0 w s = some s') :
    ∃ xs rest s₁, w = xs.flatMap Duration.amountText ++ rest ∧ Stand s.state xs ∧
      xs.foldlM (stepAmount p) s = some s₁ ∧ s₁.state = s.state ∧
        (rest = [] ∧ s' = s₁ ∨ ∃ lower rest', s.state = .period ∧
          rest = letter 0x74 lower :: rest' ∧
            ivlLoop p 0 rest' { s₁ with state := .time } = some s') := by
  induction hlen : w.length using Nat.strong_induction_on generalizing w s with
  | _ n ih =>
    subst hlen
    obtain ⟨rfl, rfl⟩ | ⟨lower, rest, hstate, rfl, hloop⟩ |
      ⟨x, rest, s₁, rfl, hhome, hfrac, hstep, hloop⟩ := ivlLoop_first htidy hs hs' h
    · exact ⟨[], [], s', rfl, nofun, rfl, rfl, .inl ⟨rfl, rfl⟩⟩
    · exact ⟨[], _, s, rfl, nofun, rfl, rfl, .inr ⟨lower, rest, hstate, rfl, hloop⟩⟩
    · obtain ⟨-, -, hput⟩ := stepAmount_eq_some hstep
      have hstate : s₁.state = s.state := hput ▸ putAmount_state p s x
      have hshort : rest.length < (Duration.amountText x ++ rest).length := by
        rw [List.length_append, Duration.amountText, List.length_append, List.length_singleton]
        omega
      have hbetween : s₁.Between := by
        rw [IvlScan.Between, hstate]
        exact hs
      obtain ⟨xs, rest', s₂, rfl, hstand, hfold, hstate', hend⟩ :=
        ih _ hshort (List.isChain_append.mp htidy).2.1 hbetween hloop rfl
      rw [hstate] at hstand hstate' hend
      refine ⟨x :: xs, rest', s₂, ?_, ?_, ?_, hstate', hend⟩
      · rw [List.flatMap_cons, List.append_assoc]
      · exact List.forall_mem_cons.mpr ⟨⟨hhome, hfrac⟩, hstand⟩
      · rw [List.foldlM_cons, hstep]
        exact hfold

/-! ## The grammar -/

/-- A text that is read as an interval: a `P`, the numbers of a date, and perhaps a `T` and the
numbers of a time, each number with a unit of its own. -/
structure IvlText where
  lowerP : Bool
  dates : List (DurationUnit × Amount)
  /-- Of the `T`, whether it is in lower case, and what is behind it. -/
  time : Option (Bool × List (DurationUnit × Amount))
  dates_units : ∀ x ∈ dates, x.1 ∈ [DurationUnit.year, .month, .day]
  time_units : ∀ t ∈ time, ∀ x ∈ t.2, x.1 ∈ [DurationUnit.hour, .minute, .second]
  once : ((dates ++ time.elim [] Prod.snd).map Prod.fst).Nodup
  written : dates ++ time.elim [] Prod.snd ≠ []
  /-- Only seconds have a fraction, of one digit or more behind a point. -/
  fraction : ∀ x ∈ dates ++ time.elim [] Prod.snd, ∀ f ∈ x.2.frac,
    x.1 = .second ∧ f.1 = false ∧ f.2 ≠ []

namespace IvlText

/-- The numbers that are written. -/
def amounts (e : IvlText) : List (DurationUnit × Amount) := e.dates ++ e.time.elim [] Prod.snd

def text (e : IvlText) : WStr :=
  letter 0x70 e.lowerP :: (e.dates.flatMap Duration.amountText ++
    e.time.elim [] fun t ↦ letter 0x74 t.1 :: t.2.flatMap Duration.amountText)

/-- The fields that are written. -/
def fields (e : IvlText) : Finset IvlField := (fieldsOf e.amounts).toFinset

/-- One number stored in the place of its unit, with its fraction. -/
def store (p : Int16) (v : IntVal) (x : DurationUnit × Amount) : IntVal :=
  x.1.field.elim v fun f ↦
    if x.2.frac.isSome then { v.set x.2.uint f with fraction := x.2.fraction p 0 }
    else v.set x.2.uint f

/-- The numbers stored one after the other, where nothing was. -/
def stored (p : Int16) (e : IvlText) : IntVal := e.amounts.foldl (store p) .zero

/-- What becomes of them under an interval type: a type of days and times whose fields are not
those written has them balanced. -/
def decoded (p : Int16) (t : IntervalType) (e : IvlText) : IntVal :=
  if type2bm t ≠ e.fields ∧ .year ∉ type2bm t ∧ .month ∉ type2bm t
  then rebalance (type2bm t) (secsOf (e.stored p)) (e.stored p).fraction
  else e.stored p

end IvlText

/-- A state whose fraction is the one that is stored. -/
def IvlScan.Holds (s : IvlScan) (v : IntVal) : Prop := s.intval = v ∧ s.fraction = v.fraction

theorem putAmount_holds {p : Int16} {s : IvlScan} {v : IntVal} (h : s.Holds v)
    (x : DurationUnit × Amount) : (putAmount p s x).Holds (IvlText.store p v x) := by
  obtain ⟨rfl, hfrac⟩ := h
  rw [putAmount, IvlText.store]
  cases x.1.field with
  | none => exact ⟨rfl, hfrac⟩
  | some f =>
    rw [Option.elim_some, Option.elim_some]
    cases hf : x.2.frac.isSome with
    | true =>
      refine ⟨?_, ?_⟩
      · simp only [IvlScan.put, hf, if_true, Amount.fraction]
      · simp only [IvlScan.put, hf, if_true, Amount.fraction]
    | false =>
      refine ⟨?_, ?_⟩
      · simp only [IvlScan.put, hf, Bool.false_eq_true, if_false]
      · cases f <;> simpa [IvlScan.put, hf, Amount.fraction, IntVal.set] using hfrac

theorem foldl_putAmount_holds {p : Int16} (xs : List (DurationUnit × Amount)) {s : IvlScan}
    {v : IntVal} (h : s.Holds v) :
    (xs.foldl (putAmount p) s).Holds (xs.foldl (IvlText.store p) v) := by
  induction xs generalizing s v with
  | nil => exact h
  | cons x xs ih => exact ih (putAmount_holds h x)

/-- Without numbers there is no return code. -/
theorem foldl_putAmount_last {p : Int16} {xs : List (DurationUnit × Amount)} {s : IvlScan}
    (hs : s.last = none) (h : (xs.foldl (putAmount p) s).last ≠ none) : xs ≠ [] := by
  rintro rfl
  exact h hs

/-- What the loop reads from the start begins with a `P`. -/
theorem ivlLoop_init {p : Int16} {w : WStr} {s' : IvlScan} (hs' : s'.Between)
    (h : ivlLoop p 0 w .init = some s') :
    ∃ lower rest, w = letter 0x70 lower :: rest ∧ ivlLoop p 0 rest .afterP = some s' := by
  cases w with
  | nil =>
    obtain rfl := Option.some.inj h
    rcases hs' with hs' | hs' <;> cases hs'
  | cons c w =>
    obtain ⟨s₁, n, hturn, hrest⟩ := ivlLoop_cons h
    have hletter {prev : IvlState} {f : IvlField} {s₁ : IvlScan} :
        assignField prev f .init ≠ some s₁ := by
      intro h
      cases (assignField_eq_some h).1
    cases hc : ivlUnit c with
    | p =>
      obtain ⟨lower, rfl⟩ := eq_letter_of_ivlUnit.1 hc
      rw [ivlLoop_letterP] at h
      exact ⟨lower, w, rfl, h⟩
    | t | number | other =>
      rw [hc] at hturn
      cases hturn
    | m =>
      rw [hc, ivlTurn] at hturn
      split at hturn
      · obtain ⟨_, hassign, -⟩ := Option.map_eq_some_iff.mp hturn
        exact absurd hassign hletter
      · obtain ⟨_, hassign, -⟩ := Option.map_eq_some_iff.mp hturn
        exact absurd hassign hletter
    | y | d | h | s =>
      rw [hc, ivlTurn] at hturn
      obtain ⟨_, hassign, -⟩ := Option.map_eq_some_iff.mp hturn
      exact absurd hassign hletter

/-- The units of numbers that are taken where they stand. -/
theorem Stand.units {st : IvlState} {xs : List (DurationUnit × Amount)} (h : Stand st xs)
    (htaken : ∀ x ∈ xs, x.2.Taken x.1) :
    (st = .period → ∀ x ∈ xs, x.1 ∈ [DurationUnit.year, .month, .day]) ∧
      (st = .time → ∀ x ∈ xs, x.1 ∈ [DurationUnit.hour, .minute, .second]) := by
  refine ⟨?_, ?_⟩
  · rintro rfl ⟨u, a⟩ hx
    have hhome := (h _ hx).1
    have hweek := (htaken _ hx).field
    dsimp only at hhome hweek ⊢
    cases u <;> first | decide | exact absurd rfl hweek | cases hhome
  · rintro rfl ⟨u, a⟩ hx
    have hhome := (h _ hx).1
    dsimp only at hhome ⊢
    cases u <;> first | decide | cases hhome

/-- What the loop reads from the start to the end is a text of the grammar. -/
theorem ivlLoop_grammar {p : Int16} {w : WStr} {s' : IvlScan} (htidy : w.IsChain Tidy)
    (hs' : s'.Between) (hlast : s'.last ≠ none) (h : ivlLoop p 0 w .init = some s') :
    ∃ e : IvlText, e.text = w ∧ s'.Holds (e.stored p) ∧ s'.fields = e.fields := by
  obtain ⟨lowerP, w, rfl, hread⟩ := ivlLoop_init hs' h
  obtain ⟨dates, rest, s₁, rfl, hdates, hfold, -, hend⟩ :=
    ivlLoop_eq_some htidy.of_cons (.inl rfl) hs' hread
  have hdates : Stand .period dates := hdates
  obtain ⟨htaken, hnodup, -, rfl⟩ := foldlM_stepAmount_eq_some hfold
  obtain ⟨rfl, rfl⟩ | ⟨lowerT, rest, -, rfl, hloop⟩ := hend
  · have hold : dates ++ (none : Option (Bool × List (DurationUnit × Amount))).elim [] Prod.snd =
        dates := List.append_nil _
    refine ⟨⟨lowerP, dates, none, (hdates.units htaken).1 rfl, nofun, ?_, ?_, ?_⟩, ?_, ?_, ?_⟩
    · rw [hold]
      exact nodup_units htaken hnodup
    · rw [hold]
      exact foldl_putAmount_last rfl hlast
    · rw [hold]
      exact fun x hx f hf ↦
        ⟨(htaken x hx).seconds (Option.isSome_iff_exists.mpr ⟨f, hf⟩), (hdates x hx).2 f hf⟩
    · rfl
    · rw [IvlText.stored, IvlText.amounts, hold]
      exact foldl_putAmount_holds dates ⟨rfl, rfl⟩
    · rw [IvlText.fields, IvlText.amounts, hold]
      ext f
      rw [mem_foldl_putAmount_fields, List.mem_toFinset]
      exact or_iff_left (Finset.notMem_empty f)
  · have htail : rest.IsChain Tidy :=
      (List.isChain_append.mp (htidy.of_cons)).2.1.of_cons
    obtain ⟨times, rest', s₂, rfl, htimes, hfold', -, hend⟩ :=
      ivlLoop_eq_some htail (.inr rfl) hs' hloop
    have htimes : Stand .time times := htimes
    obtain ⟨htaken', hnodup', hnew, rfl⟩ := foldlM_stepAmount_eq_some hfold'
    obtain ⟨rfl, rfl⟩ | ⟨_, _, hstate, -⟩ := hend
    · obtain ⟨σ, hplace⟩ := foldl_putAmount_place p times (dates.foldl (putAmount p) .afterP) .time
        (dates.foldl (putAmount p) .afterP).saved
      have hs : times.foldl (putAmount p)
          { dates.foldl (putAmount p) .afterP with state := .time } =
            { (dates ++ times).foldl (putAmount p) .afterP with state := .time, saved := σ } := by
        rw [List.foldl_append]
        exact hplace
      rw [hs] at hlast ⊢
      have hall : ∀ x ∈ dates ++ times, x.2.Taken x.1 := List.forall_mem_append.mpr ⟨htaken, htaken'⟩
      have hfields : (fieldsOf (dates ++ times)).Nodup := by
        rw [fieldsOf, List.filterMap_append, List.nodup_append']
        refine ⟨hnodup, hnodup', fun f hd ht ↦ hnew f ht ?_⟩
        exact mem_foldl_putAmount_fields.mpr (.inl hd)
      refine ⟨⟨lowerP, dates, some (lowerT, times), (hdates.units htaken).1 rfl, ?_,
        nodup_units hall hfields, foldl_putAmount_last rfl hlast, ?_⟩, ?_, ?_, ?_⟩
      · rintro _ ⟨⟩
        exact (htimes.units htaken').2 rfl
      · intro x hx f hf
        refine ⟨(hall x hx).seconds (Option.isSome_iff_exists.mpr ⟨f, hf⟩), ?_⟩
        rcases List.mem_append.mp hx with hx | hx
        · exact (hdates x hx).2 f hf
        · exact (htimes x hx).2 f hf
      · simp only [IvlText.text, Option.elim_some, List.append_nil]
      · exact foldl_putAmount_holds (dates ++ times) (s := .afterP) ⟨rfl, rfl⟩
      · ext f
        show f ∈ ((dates ++ times).foldl (putAmount p) .afterP).fields ↔ _
        rw [mem_foldl_putAmount_fields, IvlText.fields, List.mem_toFinset]
        exact or_iff_left (Finset.notMem_empty f)
    · cases hstate

/-- A result is made of what the loop has read. -/
theorem parseIntervalIso8601_eq_ok {p : Int16} {t : IntervalType} {w : WStr} {ret : SqlReturn}
    {i : SqlInterval} (h : parseIntervalIso8601 p t w = .ok (ret, i)) :
    ∃ s, ivlLoop p 0 w .init = some s ∧ s.Between ∧ s.last ≠ none ∧ i.intervalType = t ∧
      (type2bm t ≠ s.fields ∧ .year ∉ type2bm t ∧ .month ∉ type2bm t ∧
          i.intval = rebalance (type2bm t) (secsOf s.intval) s.fraction ∨
        ¬ (type2bm t ≠ s.fields ∧ .year ∉ type2bm t ∧ .month ∉ type2bm t) ∧
          s.fields ⊆ type2bm t ∧ i.intval = s.intval) := by
  rw [parseIntervalIso8601] at h
  split at h
  · cases h
  · next s hloop =>
    split at h
    · cases h
    · next hstate =>
      split at h
      · cases h
      · next v fields hnorm =>
        split at h
        · cases h
        · next hsub =>
          split at h
          · cases h
          · next r last hlast =>
            obtain ⟨rfl, rfl⟩ := Prod.mk.inj (Except.ok.inj h)
            refine ⟨s, hloop, ?_, by rw [hlast]; exact Option.some_ne_none _, rfl, ?_⟩
            · rw [IvlScan.Between]
              tauto
            · rw [normalizeInterval] at hnorm
              split at hnorm
              · next hreb =>
                refine .inl ⟨hreb.1, hreb.2.1, hreb.2.2, ?_⟩
                rw [intervalSecs_eq] at hnorm
                split at hnorm
                · cases hnorm
                · next secs hsecs =>
                  obtain rfl : secsOf s.intval = secs := by
                    split at hsecs
                    · exact Option.some.inj hsecs
                    · cases hsecs
                  rw [hlast] at hnorm
                  split at hnorm
                  · exact (Prod.mk.inj (Except.ok.inj hnorm)).1.symm
                  · cases last with
                    | true => cases hnorm
                    | false => exact (Prod.mk.inj (Except.ok.inj hnorm)).1.symm
              · next hreb =>
                obtain ⟨rfl, rfl⟩ := Prod.mk.inj (Except.ok.inj hnorm)
                exact .inr ⟨hreb, not_not.mp hsub, rfl⟩

/-! ## Where a turn ends -/

theorem ubigintLoop_le {i n m j : ℕ} {w : WStr} (h : ubigintLoop false i n w = some (m, j)) :
    j ≤ i + w.length := by
  obtain ⟨ds, rest, rfl, -, rfl, -, -⟩ := ubigintLoop_eq_some h
  rw [List.length_append, digitUnits_length]
  omega

theorem str2ubigint_le {m j : ℕ} {w : WStr} (h : str2ubigint w false = some (m, j)) :
    j ≤ w.length := by
  rw [str2ubigint] at h
  split at h
  · cases h
  · next hw =>
    obtain ⟨c, w, rfl⟩ := List.exists_cons_of_ne_nil hw
    rw [List.length_cons]
    dsimp only at h
    split at h
    · cases h
    · split at h
      · have := ubigintLoop_le h
        rw [List.tail_cons] at this
        omega
      · have := ubigintLoop_le h
        rw [List.length_cons] at this
        omega

/-- A number ends within the text. -/
theorem parseIso8601Number_le {p : Int16} {w : WStr} {s s' : IvlScan} {n : ℕ}
    (h : parseIso8601Number p w s = some (s', n)) : n ≤ w.length := by
  rw [parseIso8601Number] at h
  split at h
  · cases h
  · next bint digits _ =>
    split at h
    · cases h
    · next next hnext =>
      have hlt : digits < w.length := (List.getElem?_eq_some_iff.mp hnext).1
      split at h
      · dsimp only at h
        generalize (if digits = 0 then (0 : ℤ) else bint) = b at h
        split at h
        · cases h
        · next fraction ret stop hfrac =>
          obtain ⟨_, -, hr⟩ := Option.map_eq_some_iff.mp h
          obtain ⟨-, rfl⟩ := Prod.mk.inj hr
          rw [parseFraction] at hfrac
          split at hfrac
          · cases hfrac
          · split at hfrac
            · cases hfrac
            · next ubint fdigits hread =>
              have hle := str2ubigint_le hread
              rw [List.length_drop] at hle
              split at hfrac
              · cases hfrac
              · obtain ⟨-, hr⟩ := Prod.mk.inj (Option.some.inj hfrac)
                obtain ⟨-, rfl⟩ := Prod.mk.inj hr
                omega
      · obtain ⟨_, -, hr⟩ := Option.map_eq_some_iff.mp h
        obtain ⟨-, rfl⟩ := Prod.mk.inj hr
        exact hlt.le

/-- So does every turn. -/
theorem ivlTurn_le {p : Int16} {c : UInt16} {rest : WStr} {s s' : IvlScan} {u : IvlUnit} {n : ℕ}
    (h : ivlTurn p (c :: rest) s u = some (s', n)) : n ≤ (c :: rest).length := by
  have hone {o : Option IvlScan} {s' : IvlScan} {n : ℕ} (h : o.map (·, 1) = some (s', n)) :
      n ≤ (c :: rest).length := by
    obtain ⟨_, -, hr⟩ := Option.map_eq_some_iff.mp h
    obtain ⟨-, rfl⟩ := Prod.mk.inj hr
    exact Nat.succ_le_succ (Nat.zero_le _)
  cases u with
  | p | t =>
    rw [ivlTurn] at h
    split at h
    · cases h
    · obtain ⟨-, rfl⟩ := Prod.mk.inj (Option.some.inj h)
      exact Nat.succ_le_succ (Nat.zero_le _)
  | other => cases h
  | number =>
    rw [ivlTurn] at h
    split at h
    · cases h
    · obtain ⟨⟨_, m⟩, hnum, hr⟩ := Option.map_eq_some_iff.mp h
      obtain ⟨-, rfl⟩ := Prod.mk.inj hr
      exact parseIso8601Number_le hnum
  | y | d | h => exact hone h
  | m =>
    rw [ivlTurn] at h
    split at h
    · exact hone h
    · exact hone h
  | s =>
    obtain ⟨_, -, hr⟩ := Option.map_eq_some_iff.mp h
    obtain ⟨-, rfl⟩ := Prod.mk.inj hr
    exact Nat.succ_le_succ (Nat.zero_le _)

/-! ## The result -/

/-- A type of years and months. -/
def IntervalType.YearMonth (t : IntervalType) : Prop := .year ∈ type2bm t ∨ .month ∈ type2bm t

/-- A text of the standard: letters in upper case, units in their order, and digits before every
point. -/
structure IvlText.Standard (e : IvlText) : Prop where
  upper : e.lowerP = false ∧ (∀ t ∈ e.time, t.1 = false) ∧ ∀ x ∈ e.amounts, x.2.lower = false
  order : (e.amounts.map Prod.fst).Sublist [.year, .month, .day, .hour, .minute, .second]
  whole : ∀ x ∈ e.amounts, x.2.whole ≠ []

/-- A number with a whole part starts with a sign or a digit. -/
theorem Amount.head_text {a : Amount} (h : a.whole ≠ []) :
    ∃ c t, a.text = c :: t ∧ ivlUnit c = .number ∧ c ≠ 0x2E := by
  obtain ⟨d, ds, hw⟩ := List.exists_cons_of_ne_nil h
  cases hs : a.sign with
  | none =>
    refine ⟨digitUnit d, digitUnits ds ++ a.fracText, ?_, ivlUnit_digitUnit d, ?_⟩
    · rw [Amount.text, Amount.signText, hs, hw]
      rfl
    · clear hw
      revert d
      decide
  | some neg =>
    refine ⟨if neg then 0x2D else 0x2B, digitUnits a.whole ++ a.fracText, ?_, ?_, ?_⟩
    · rw [Amount.text, Amount.signText, hs]
      rfl
    · cases neg <;> decide
    · cases neg <;> decide

/-- Behind the `P` of a text of the standard that has a `T` next, there is a time. -/
theorem IvlText.Standard.time_eq {e : IvlText} (h : e.Standard) {w : WStr}
    (htext : e.text = 0x50 :: 0x54 :: w) :
    ∃ times : List (DurationUnit × Amount), times ≠ [] ∧ e.amounts = times ∧
      (∀ x ∈ times, x.1 ∈ [DurationUnit.hour, .minute, .second]) ∧
      w = times.flatMap Duration.amountText := by
  have hhead (x : DurationUnit × Amount) (hx : x ∈ e.amounts) (rest : WStr) :
      Duration.amountText x ++ rest ≠ 0x54 :: w := by
    obtain ⟨c, t, hc, hunit, -⟩ := Amount.head_text (h.whole x hx)
    rw [Duration.amountText, hc]
    intro heq
    obtain rfl : c = 0x54 := (List.cons.inj heq).1
    exact absurd hunit (by decide)
  have htail := (List.cons.inj htext).2
  have hdates : e.dates = [] := by
    by_contra hne
    obtain ⟨x, xs, hx⟩ := List.exists_cons_of_ne_nil hne
    rw [hx, List.flatMap_cons, List.append_assoc] at htail
    refine hhead x ?_ _ htail
    rw [IvlText.amounts, hx]
    exact List.mem_cons_self
  have hamounts : e.amounts = e.time.elim [] Prod.snd := by
    rw [IvlText.amounts, hdates, List.nil_append]
  rw [hdates, List.flatMap_nil, List.nil_append] at htail
  have hne : e.amounts ≠ [] := e.written
  cases ht : e.time with
  | none =>
    rw [hamounts, ht] at hne
    exact absurd rfl hne
  | some t =>
    rw [hamounts, ht] at hne
    rw [ht] at htail
    exact ⟨t.2, hne, by rw [hamounts, ht]; rfl, e.time_units t ht, (List.cons.inj htail).2.symm⟩

/-- The letters of a number with its unit. -/
theorem filter_amountText (x : DurationUnit × Amount) :
    (Duration.amountText x).filter (fun c ↦ decide (0x41 ≤ c)) = [x.1.letter x.2.lower] := by
  have hsign : ∀ c ∈ x.2.signText, ¬ decide ((0x41 : UInt16) ≤ c) = true := by
    cases hs : x.2.sign with
    | none => simp [Amount.signText, hs]
    | some neg => cases neg <;> simp [Amount.signText, hs]
  have hdigits (ds : List (Fin 10)) : ∀ c ∈ digitUnits ds, ¬ decide ((0x41 : UInt16) ≤ c) = true := by
    intro c hc
    obtain ⟨d, -, rfl⟩ := List.mem_map.mp hc
    clear hc
    revert d
    decide
  have hfrac : ∀ c ∈ x.2.fracText, ¬ decide ((0x41 : UInt16) ≤ c) = true := by
    cases hf : x.2.frac with
    | none => simp [Amount.fracText, hf]
    | some f =>
      intro c hc
      rw [Amount.fracText, hf, Option.elim_some, List.mem_cons] at hc
      rcases hc with rfl | hc
      · cases f.1 <;> decide
      · exact hdigits _ c hc
  have hletter : decide (0x41 ≤ x.1.letter x.2.lower) = true := by
    cases x.1 <;> cases x.2.lower <;> decide
  rw [Duration.amountText, Amount.text, List.filter_append, List.filter_append, List.filter_append,
    List.filter_eq_nil_iff.mpr hsign, List.filter_eq_nil_iff.mpr (hdigits _),
    List.filter_eq_nil_iff.mpr hfrac, List.nil_append, List.nil_append, List.nil_append,
    List.filter_cons, if_pos hletter, List.filter_nil]

end EsOdbc
